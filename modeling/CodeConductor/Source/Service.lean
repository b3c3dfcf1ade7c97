import CodeConductor.Contracts.Job
import CodeConductor.Source.Compiler

/-!
# The order of a source run

A run enqueues the contracts of a batch with their dependencies first: `topologicalOrder` visits a
contract after what it depends on, and does not look for cycles, which `validateGraph` has done.

The visit follows the search of `validateGraph` step by step (`orderVisit_follows`). So it ends
where the search ends, and orders the contracts as the search visited them.
-/

namespace CodeConductor

open DepthFirst

variable {Terms : Type}

/-! ### `topologicalOrder` -/

/-- The ids visited, the newest first, and the contracts ordered. -/
structure OrderState (Terms : Type) where
  visited : List String := []
  ordered : List (CompiledSourceContract Terms) := []

/-- `visit(byId.get(dependency)!)`. -/
def visitDependency (contracts : List (CompiledSourceContract Terms))
    (visit : CompiledSourceContract Terms → OrderState Terms →
      Option (Except RuntimeError (OrderState Terms)))
    (dependency : String) (s : OrderState Terms) :
    Option (Except RuntimeError (OrderState Terms)) :=
  match getContract contracts dependency with
  | some found => visit found s
  | none => some (.error undefinedContract)

/-- `visit` of `topologicalOrder`. -/
def orderVisit (contracts : List (CompiledSourceContract Terms)) :
    ℕ → CompiledSourceContract Terms → OrderState Terms →
      Option (Except RuntimeError (OrderState Terms))
  | 0, _, _ => none
  | fuel + 1, compiled, s =>
    if compiled.id ∈ s.visited then some (.ok s)
    else
      match visitAll (visitDependency contracts (orderVisit contracts fuel))
          compiled.contract.dependsOn s with
      | some (.ok s') => some (.ok ⟨compiled.id :: s'.visited, s'.ordered ++ [compiled]⟩)
      | some (.error error) => some (.error error)
      | none => none

/-- `topologicalOrder`. -/
def topologicalOrder (contracts : List (CompiledSourceContract Terms)) (fuel : ℕ) :
    Option (Except RuntimeError (List (CompiledSourceContract Terms))) :=
  (visitAll (orderVisit contracts fuel) contracts {}).map (Except.map (·.ordered))

/-! ### The loop of `compileAndEnqueue` -/

/-- A job id of a queue item: `z.string().min(1)`. -/
structure ItemJobId where
  text : JobId
  nonempty : text ≠ ""

/-- What `dispatcher.enqueue` returns. -/
structure EnqueueResult where
  jobId : ItemJobId
  status : QueueItemStatus
  idempotentReplay : Bool

/-- `SourceEnqueueRecord`. -/
structure SourceEnqueueRecord where
  contractId : String
  jobId : JobId
  queueStatus : QueueItemStatus
  idempotentReplay : Bool
  dependsOnJobIds : List JobId
  deriving DecidableEq, Repr

/-- The errors of the loop, by where they come from. -/
inductive SourceRunError where
  /-- A dependency has no job yet. -/
  | notCompiledFirst (dependency id : String)
  /-- `dispatcher.enqueue` failed. -/
  | enqueue (error : RuntimeError)
  deriving DecidableEq, Repr

/-- The message an error carries. -/
def SourceRunError.message : SourceRunError → String
  | notCompiledFirst dependency id =>
    "Dependency " ++ dependency ++ " for " ++ id ++ " was not compiled first"
  | enqueue error => error.message

/-- The job of a dependency. -/
def dependencyJob (jobsByContract : List (String × JobId)) (id dependency : String) :
    Except SourceRunError JobId :=
  match jobsByContract.lookup dependency with
  | some jobId => if jobId = "" then .error (.notCompiledFirst dependency id) else .ok jobId
  | none => .error (.notCompiledFirst dependency id)

section Enqueue

variable {σ : Type} (enqueue : CompiledSourceContract Terms → QueueOptions → σ →
  Except RuntimeError EnqueueResult × σ)

/-- The loop of `compileAndEnqueue` over the ordered contracts: what it has enqueued, the newest
job of a contract first, and the state of the stores. -/
def enqueueAll : List (CompiledSourceContract Terms) → List (String × JobId) →
    List SourceEnqueueRecord → σ → Except SourceRunError (List SourceEnqueueRecord) × σ
  | [], _, enqueued, stores => (.ok enqueued, stores)
  | compiled :: rest, jobsByContract, enqueued, stores =>
    match compiled.contract.dependsOn.mapM (dependencyJob jobsByContract compiled.id) with
    | .error error => (.error error, stores)
    | .ok dependsOnJobIds =>
      match enqueue compiled ⟨compiled.contract.priority, dependsOnJobIds⟩ stores with
      | (.error error, stores') => (.error (.enqueue error), stores')
      | (.ok result, stores') =>
        enqueueAll rest ((compiled.id, result.jobId.text) :: jobsByContract)
          (enqueued ++ [⟨compiled.id, result.jobId.text, result.status, result.idempotentReplay,
            dependsOnJobIds⟩]) stores'

end Enqueue

/-! ### The order -/

/-- Each contract comes after those it depends on. -/
def DependenciesFirst (ordered : List (CompiledSourceContract Terms)) : Prop :=
  ∀ before compiled after, ordered = before ++ compiled :: after →
    ∀ dependency ∈ compiled.contract.dependsOn, dependency ∈ contractIds before

/-- The state of the visit where the search has visited these ids. -/
def orderState (contracts : List (CompiledSourceContract Terms)) (visited : List String) :
    OrderState Terms :=
  ⟨visited, visited.reverse.filterMap (getContract contracts)⟩

section Follows

variable {contracts : List (CompiledSourceContract Terms)}

theorem orderState_cons (hdistinct : (contractIds contracts).Nodup)
    {compiled : CompiledSourceContract Terms} (hmem : compiled ∈ contracts)
    (visited : List String) :
    orderState contracts (compiled.id :: visited) =
      ⟨compiled.id :: visited, (orderState contracts visited).ordered ++ [compiled]⟩ := by
  rw [orderState, List.reverse_cons, List.filterMap_append]
  simp [orderState, getContract_id hdistinct hmem]

/-- Where the search goes through, the visit does what the search does. -/
theorem orderVisit_follows (hdistinct : (contractIds contracts).Nodup)
    (hclosed : ∀ id ∈ contractIds contracts, dependencies contracts id ⊆ contractIds contracts)
    {fuel : ℕ} {compiled : CompiledSourceContract Terms} (hmem : compiled ∈ contracts)
    {s s' : Search String}
    (h : findCycle (dependencies contracts) fuel compiled.id s = some (.ok s')) :
    orderVisit contracts fuel compiled (orderState contracts s.visited) =
      some (.ok (orderState contracts s'.visited)) := by
  induction fuel generalizing compiled s s' with
  | zero => exact absurd h (by simp [findCycle])
  | succ fuel ih =>
    have hid : compiled.id ∈ contractIds contracts := List.mem_map_of_mem hmem
    rw [findCycle] at h
    rw [orderVisit]
    split at h
    · rename_i hvisited
      obtain rfl := Except.ok.inj (Option.some.inj h)
      exact if_pos hvisited
    · rename_i hvisited
      split at h
      · cases h
      · split at h
        · rename_i s₁ hnext
          obtain rfl := Except.ok.inj (Option.some.inj h)
          rw [dependencies_id hdistinct hmem] at hnext
          have hstep : ∀ dependency ∈ compiled.contract.dependsOn, ∀ s s₁ t,
              findCycle (dependencies contracts) fuel dependency s = some (.ok s₁) →
              t = orderState contracts s.visited →
              ∃ t₁, visitDependency contracts (orderVisit contracts fuel) dependency t =
                  some (.ok t₁) ∧ t₁ = orderState contracts s₁.visited := by
            intro dependency hdep s s₁ t hvisit hsim
            rw [← dependencies_id hdistinct hmem] at hdep
            obtain ⟨found, hfound⟩ := getContract_isSome (hclosed compiled.id hid hdep)
            obtain ⟨hfoundmem, rfl⟩ := getContract_mem hfound
            refine ⟨_, ?_, rfl⟩
            rw [hsim, visitDependency, hfound]
            exact ih hfoundmem hvisit
          obtain ⟨t₁, hall, rfl⟩ := visitAll_simulates hstep hnext rfl
          have hvisited' : ¬ compiled.id ∈ (orderState contracts s.visited).visited := hvisited
          rw [if_neg hvisited', hall, orderState_cons hdistinct hmem]
          rfl
        · cases h
        · cases h

/-- The visits of a list that the search goes through. -/
theorem topologicalOrder_follows (hdistinct : (contractIds contracts).Nodup)
    (hclosed : ∀ id ∈ contractIds contracts, dependencies contracts id ⊆ contractIds contracts)
    {fuel : ℕ} {s : Search String}
    (h : visitAll (findCycle (dependencies contracts) fuel) (contractIds contracts) {} =
      some (.ok s)) :
    topologicalOrder contracts fuel =
      some (.ok (s.visited.reverse.filterMap (getContract contracts))) := by
  rw [contractIds, visitAll_map] at h
  have hstep : ∀ compiled ∈ contracts, ∀ s s₁ t,
      findCycle (dependencies contracts) fuel compiled.id s = some (.ok s₁) →
      t = orderState contracts s.visited →
      ∃ t₁, orderVisit contracts fuel compiled t = some (.ok t₁) ∧
        t₁ = orderState contracts s₁.visited := by
    intro compiled hmem s s₁ t hvisit hsim
    exact ⟨_, hsim ▸ orderVisit_follows hdistinct hclosed hmem hvisit, rfl⟩
  obtain ⟨t, hall, rfl⟩ := visitAll_simulates hstep h rfl
  have hstart : orderState contracts [] = {} := rfl
  rw [topologicalOrder, ← hstart, hall]
  rfl

/-- The ids of the contracts ordered are the ids visited. -/
theorem contractIds_ordered {visited : List String} (hsub : visited ⊆ contractIds contracts) :
    contractIds (visited.filterMap (getContract contracts)) = visited := by
  induction visited with
  | nil => rfl
  | cons id rest ih =>
    obtain ⟨hid, hrest⟩ := List.cons_subset.1 hsub
    obtain ⟨compiled, hfound⟩ := getContract_isSome hid
    rw [List.filterMap_cons_some hfound, contractIds, List.map_cons]
    exact congrArg₂ List.cons (getContract_mem hfound).2 (ih hrest)

/-- In the order of the search each contract comes after those it depends on. -/
theorem dependenciesFirst_of_ordered (hdistinct : (contractIds contracts).Nodup)
    {visited : List String} (hordered : Ordered (dependencies contracts) visited)
    (hsub : visited ⊆ contractIds contracts) :
    DependenciesFirst (visited.reverse.filterMap (getContract contracts)) := by
  induction visited with
  | nil =>
    intro before compiled after heq
    simp at heq
  | cons id rest ih =>
    obtain ⟨hid, hrest⟩ := List.cons_subset.1 hsub
    obtain ⟨last, hfound⟩ := getContract_isSome hid
    obtain ⟨hlast, rfl⟩ := getContract_mem hfound
    intro before compiled after heq dependency hdep
    have hsnoc := congrArg (·.ordered) (orderState_cons hdistinct hlast rest)
    change ((last.id :: rest).reverse.filterMap (getContract contracts)) =
      rest.reverse.filterMap (getContract contracts) ++ [last] at hsnoc
    rw [hsnoc] at heq
    rcases List.eq_nil_or_concat after with rfl | ⟨after', final, rfl⟩
    · -- the newest contract leads into the ones before it
      obtain ⟨rfl, hsame⟩ := List.append_inj' heq rfl
      obtain rfl : last = compiled := List.head_eq_of_cons_eq hsame
      rw [contractIds_ordered fun _ hmem ↦ hrest (List.mem_reverse.1 hmem), List.mem_reverse]
      exact hordered.2.1 dependency (dependencies_id hdistinct hlast ▸ hdep)
    · rw [List.concat_eq_append, ← List.cons_append, ← List.append_assoc] at heq
      obtain ⟨hbefore, -⟩ := List.append_inj' heq rfl
      exact ih hordered.2.2 hrest before compiled after' hbefore dependency hdep

end Follows

/-- The order of a well-formed graph: all its contracts, each after those it depends on. -/
theorem WellFormed.topologicalOrder {contracts : List (CompiledSourceContract Terms)}
    (h : WellFormed contracts) :
    ∃ ordered, Settles (topologicalOrder contracts) (.ok ordered) ∧ ordered.Perm contracts ∧
      DependenciesFirst ordered := by
  have hclosed := dependencies_closed h.present
  have hfuel := Nat.lt_succ_self (contractIds contracts).length
  rcases searchAll hclosed hfuel with ⟨id, -, -, hcycle⟩ | ⟨s, hok, hordered, hall, hsub⟩
  · rw [edge_dependencies h.distinct] at hcycle
    exact absurd hcycle (h.acyclic id)
  · refine ⟨s.visited.reverse.filterMap (getContract contracts),
      ⟨(contractIds contracts).length + 1, fun more hle ↦ ?_⟩, ?_,
      dependenciesFirst_of_ordered h.distinct hordered hsub⟩
    · refine topologicalOrder_follows h.distinct hclosed ?_
      exact visitAll_mono (fun _ _ _ hvisit ↦ findCycle_mono hle hvisit) hok
    · have hids : contractIds (s.visited.reverse.filterMap (getContract contracts)) =
          s.visited.reverse := contractIds_ordered fun _ hmem ↦ hsub (List.mem_reverse.1 hmem)
      have hnodup : (s.visited.reverse.filterMap (getContract contracts)).Nodup := by
        refine List.Nodup.of_map (·.id) ?_
        change (contractIds _).Nodup
        rw [hids]
        exact List.nodup_reverse.2 hordered.nodup
      refine (List.perm_ext_iff_of_nodup hnodup (List.Nodup.of_map _ h.distinct)).2 fun compiled ↦ ?_
      rw [List.mem_filterMap]
      constructor
      · rintro ⟨id, -, hfound⟩
        exact (getContract_mem hfound).1
      · intro hmem
        refine ⟨compiled.id, List.mem_reverse.2 (hall ?_), getContract_id h.distinct hmem⟩
        exact List.mem_map_of_mem hmem

/-! ### The run -/

/-- A dependency with a job is found. -/
theorem dependencyJob_eq_ok {jobsByContract : List (String × JobId)} {id dependency : String}
    {jobId : JobId} (h : jobsByContract.lookup dependency = some jobId) (hne : jobId ≠ "") :
    dependencyJob jobsByContract id dependency = .ok jobId := by
  rw [dependencyJob, h]
  exact if_neg hne

/-- A run over contracts that come after those they depend on misses no dependency: every contract
before the one at hand has its job. -/
theorem enqueueAll_ne_notCompiledFirst {σ : Type}
    (enqueue : CompiledSourceContract Terms → QueueOptions → σ →
      Except RuntimeError EnqueueResult × σ)
    {before rest : List (CompiledSourceContract Terms)}
    (hfirst : DependenciesFirst (before ++ rest)) {jobsByContract : List (String × JobId)}
    (hjobs : ∀ id ∈ contractIds before, ∃ jobId, jobsByContract.lookup id = some jobId ∧ jobId ≠ "")
    (enqueued : List SourceEnqueueRecord) (stores : σ) (dependency id : String) :
    (enqueueAll enqueue rest jobsByContract enqueued stores).1 ≠
      .error (.notCompiledFirst dependency id) := by
  induction rest generalizing before jobsByContract enqueued stores with
  | nil => exact nofun
  | cons compiled rest ih =>
    have hfound : ∀ d ∈ compiled.contract.dependsOn,
        ∃ jobId, dependencyJob jobsByContract compiled.id d = .ok jobId := by
      intro d hd
      obtain ⟨jobId, hlookup, hne⟩ := hjobs d (hfirst before compiled rest rfl d hd)
      exact ⟨jobId, dependencyJob_eq_ok hlookup hne⟩
    obtain ⟨dependsOnJobIds, hdeps⟩ := exists_mapM_eq_ok hfound
    rw [enqueueAll, hdeps]
    dsimp only
    split
    · exact nofun
    · rename_i result stores' hresult
      have hfirst' : DependenciesFirst ((before ++ [compiled]) ++ rest) := by
        rw [List.append_assoc]
        exact hfirst
      refine ih hfirst' ?_ _ _
      · intro id' hid'
        rw [List.lookup_cons]
        split
        · exact ⟨result.jobId.text, rfl, result.jobId.nonempty⟩
        · rename_i hne
          refine hjobs id' ?_
          simp only [contractIds, List.map_append, List.map_cons, List.map_nil, List.mem_append,
            List.mem_singleton] at hid'
          rcases hid' with hid' | rfl
          · exact hid'
          · simp at hne

/-- A run of the batch, whatever its enqueues do: the order exists, and no dependency is missed. -/
structure Orderly (contracts : List (CompiledSourceContract Terms)) : Prop where
  ordered : ∃ ordered, Settles (topologicalOrder contracts) (.ok ordered) ∧
    ordered.Perm contracts ∧ DependenciesFirst ordered
  compiledFirst : ∀ ordered, Settles (topologicalOrder contracts) (.ok ordered) →
    ∀ (σ : Type) (enqueue : CompiledSourceContract Terms → QueueOptions → σ →
      Except RuntimeError EnqueueResult × σ) (stores : σ) (dependency id : String),
      (enqueueAll enqueue ordered [] [] stores).1 ≠ .error (.notCompiledFirst dependency id)

theorem WellFormed.orderly {contracts : List (CompiledSourceContract Terms)}
    (h : WellFormed contracts) : Orderly contracts where
  ordered := h.topologicalOrder
  compiledFirst ordered hsettles σ enqueue stores dependency id := by
    obtain ⟨ordered', hsettles', -, hfirst⟩ := h.topologicalOrder
    obtain rfl := Except.ok.inj (hsettles.unique hsettles')
    have hstart : DependenciesFirst ([] ++ ordered) := hfirst
    exact enqueueAll_ne_notCompiledFirst enqueue hstart (fun _ hid ↦ nomatch hid) [] stores
      dependency id

/-- A graph is accepted if and only if it is well formed. -/
theorem accepted_iff {contracts : List (CompiledSourceContract Terms)} :
    Settles (validateGraph contracts) (.ok ()) ↔ WellFormed contracts := by
  obtain ⟨result, hsettles, hresult⟩ := validateGraph_settles contracts
  rw [← hresult]
  constructor
  · exact fun hok ↦ hsettles.unique hok
  · rintro rfl
    exact hsettles

/-- A batch is a selection that is well formed, in another order. -/
theorem WellFormed.of_selectBatch {localeLe : String → String → Bool}
    {contracts batch : List (CompiledSourceContract Terms)} {requestedIds : Option (List String)}
    (h : Settles (selectBatch localeLe contracts requestedIds) (.ok batch)) : WellFormed batch := by
  obtain ⟨fuel, hrun⟩ := h
  rcases hselect : requestedIds.elim (.ok contracts) (selectContracts contracts) with
    error | selected
  · have herror := hrun fuel (Nat.le_refl _)
    simp only [selectBatch, hselect] at herror
    split at herror <;> exact nomatch herror
  · obtain ⟨result, ⟨fuel', hvalid⟩, hresult⟩ := validateGraph_settles selected
    have hbatch := hrun (max fuel fuel') (Nat.le_max_left ..)
    simp only [selectBatch, hselect, hvalid _ (Nat.le_max_right fuel fuel')] at hbatch
    split at hbatch
    · exact nomatch hbatch
    · exact nomatch hbatch
    · rcases result with error | ⟨⟩
      · exact nomatch hbatch
      · obtain rfl := Except.ok.inj (Option.some.inj hbatch)
        exact (hresult.1 rfl).perm (List.mergeSort_perm ..)

/-- What validation promises to the run. -/
structure ValidationSound (contracts : List (CompiledSourceContract Terms)) : Prop where
  settles : ∃ result, Settles (validateGraph contracts) result
  accepts : Settles (validateGraph contracts) (.ok ()) ↔ WellFormed contracts
  orderly : Settles (validateGraph contracts) (.ok ()) → Orderly contracts
  batch : ∀ localeLe requestedIds batch,
    Settles (selectBatch localeLe contracts requestedIds) (.ok batch) → Orderly batch

/-- Validation accepts the graphs with distinct ids, no missing dependency and no cycle, and these
are ordered with the dependencies first, as a whole and for any accepted selection. -/
theorem validationSound (contracts : List (CompiledSourceContract Terms)) :
    ValidationSound contracts where
  settles := by
    obtain ⟨result, hsettles, -⟩ := validateGraph_settles contracts
    exact ⟨result, hsettles⟩
  accepts := accepted_iff
  orderly hsettles := (accepted_iff.1 hsettles).orderly
  batch _ _ _ hsettles := (WellFormed.of_selectBatch hsettles).orderly

end CodeConductor
