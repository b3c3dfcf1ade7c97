import CodeConductor.Contracts.Checks
import CodeConductor.Graph.DepthFirst

/-!
# The contracts of a source scan

A scan compiles the contracts of a repository, checks the graph their dependencies make, selects
the contracts a request names, checks the selection and sorts it. The check looks for contracts of
one id, for dependencies that are missing, and for a cycle.

`validateGraph` runs with fuel. It `Settles`: from some fuel on it has one answer, and the answer
is no error for the graphs that are `WellFormed`.
-/

namespace CodeConductor

open DepthFirst

/-- From some fuel on, a computation has this result. -/
def Settles {ρ : Type} (run : ℕ → Option ρ) (result : ρ) : Prop :=
  ∃ fuel, ∀ more, fuel ≤ more → run more = some result

theorem Settles.unique {ρ : Type} {run : ℕ → Option ρ} {result result' : ρ}
    (h : Settles run result) (h' : Settles run result') : result = result' := by
  obtain ⟨fuel, hrun⟩ := h
  obtain ⟨fuel', hrun'⟩ := h'
  have hmax := hrun (max fuel fuel') (Nat.le_max_left ..)
  rw [hrun' _ (Nat.le_max_right ..)] at hmax
  exact (Option.some.inj hmax).symm

/-- `compiledSourceContractSchema.shape.source`. -/
structure SourceLocation where
  repositoryRoot : String
  revision : String
  path : String
  line : ℕ
  deriving DecidableEq, Repr

/-- `sourceContractSchema`: what orders a contract, and the terms of the job it asks for. -/
structure SourceContract (Terms : Type) where
  dependsOn : List String
  priority : Int
  terms : Terms
  deriving DecidableEq, Repr

/-- `compiledSourceContractSchema`. -/
structure CompiledSourceContract (Terms : Type) where
  id : String
  fingerprint : String
  source : SourceLocation
  contract : SourceContract Terms
  deriving DecidableEq, Repr

variable {Terms : Type}

/-- The ids of a list of contracts. -/
def contractIds (contracts : List (CompiledSourceContract Terms)) : List String :=
  contracts.map (·.id)

/-- `new Map(contracts.map((contract) => [contract.id, contract])).get(id)`: the last contract of
an id. -/
def getContract (contracts : List (CompiledSourceContract Terms)) (id : String) :
    Option (CompiledSourceContract Terms) :=
  contracts.reverse.find? (·.id = id)

/-- What reading a member of `undefined` throws. -/
def undefinedContract : RuntimeError :=
  .plain "Cannot read properties of undefined (reading 'contract')"

/-! ### `validateGraph` -/

/-- The first pass: no two contracts have one id. -/
def indexContracts : List (CompiledSourceContract Terms) → List (CompiledSourceContract Terms) →
    Except RuntimeError (List (CompiledSourceContract Terms))
  | [], byId => .ok byId
  | contract :: rest, byId =>
    match byId.find? (·.id = contract.id) with
    | some existing =>
      .error (.plain ("Duplicate contract id " ++ contract.id ++ " at " ++ existing.source.path ++
        ":" ++ toString existing.source.line ++ " and " ++ contract.source.path ++ ":" ++
        toString contract.source.line))
    | none => indexContracts rest (byId ++ [contract])

/-- The second pass: no dependency is missing. -/
def requireDependencies (byId contracts : List (CompiledSourceContract Terms)) :
    Except RuntimeError Unit :=
  contracts.forM fun contract ↦ contract.contract.dependsOn.forM fun dependency ↦
    throwUnless (dependency ∈ contractIds byId)
      (.plain ("Contract " ++ contract.id ++ " depends on missing " ++ dependency))

/-- What the third pass throws at a contract it is visiting. -/
def cycleError (id : String) : RuntimeError :=
  .plain ("Contract dependency cycle includes " ++ id)

/-- `visit` of `validateGraph`. -/
def validateVisit (byId : List (CompiledSourceContract Terms)) :
    ℕ → String → Search String → Option (Except RuntimeError (Search String))
  | 0, _, _ => none
  | fuel + 1, id, s =>
    if id ∈ s.visited then some (.ok s)
    else if id ∈ s.visiting then some (.error (cycleError id))
    else
      match getContract byId id with
      | none => some (.error undefinedContract)
      | some compiled =>
        match visitAll (validateVisit byId fuel) compiled.contract.dependsOn
            { s with visiting := id :: s.visiting } with
        | some (.ok s') => some (.ok ⟨s'.visiting.filter (· ≠ id), id :: s'.visited⟩)
        | some (.error error) => some (.error error)
        | none => none

/-- `validateGraph`. -/
def validateGraph (contracts : List (CompiledSourceContract Terms)) (fuel : ℕ) :
    Option (Except RuntimeError Unit) :=
  match indexContracts contracts [] with
  | .error error => some (.error error)
  | .ok byId =>
    match requireDependencies byId contracts with
    | .error error => some (.error error)
    | .ok () =>
      (visitAll (validateVisit byId fuel) (contractIds byId) {}).map (Except.map fun _ ↦ ())

/-! ### Selection -/

/-- `selectContracts`. -/
def selectContracts (contracts : List (CompiledSourceContract Terms)) (requestedIds : List String) :
    Except RuntimeError (List (CompiledSourceContract Terms)) :=
  let missing := requestedIds.filter fun id ↦ (getContract contracts id).isNone
  if 0 < missing.length then
    .error (.plain ("Requested source contracts were not found: " ++ ", ".intercalate missing))
  else .ok (requestedIds.filterMap (getContract contracts))

/-- The end of `compile`: the contracts of the batch, in the order `localeLe` of their ids. -/
def selectBatch (localeLe : String → String → Bool) (contracts : List (CompiledSourceContract Terms))
    (requestedIds : Option (List String)) (fuel : ℕ) :
    Option (Except RuntimeError (List (CompiledSourceContract Terms))) :=
  match validateGraph contracts fuel with
  | none => none
  | some (.error error) => some (.error error)
  | some (.ok ()) =>
    match requestedIds.elim (.ok contracts) (selectContracts contracts) with
    | .error error => some (.error error)
    | .ok selected =>
      match validateGraph selected fuel with
      | none => none
      | some (.error error) => some (.error error)
      | some (.ok ()) =>
        some (.ok (selected.mergeSort fun left right ↦ localeLe left.id right.id))

/-! ### Well-formed graphs -/

/-- A contract of the list with id `id` depends on `dependency`. -/
def DependsOn (contracts : List (CompiledSourceContract Terms)) (id dependency : String) : Prop :=
  ∃ compiled ∈ contracts, compiled.id = id ∧ dependency ∈ compiled.contract.dependsOn

/-- The ids are distinct, the dependencies present, and no contract depends on itself, directly or
through others. -/
structure WellFormed (contracts : List (CompiledSourceContract Terms)) : Prop where
  distinct : (contractIds contracts).Nodup
  present : ∀ compiled ∈ contracts, ∀ dependency ∈ compiled.contract.dependsOn,
    dependency ∈ contractIds contracts
  acyclic : ∀ id, ¬ Relation.TransGen (DependsOn contracts) id id

/-- The order of the list does not matter. -/
theorem WellFormed.perm {contracts contracts' : List (CompiledSourceContract Terms)}
    (h : WellFormed contracts) (hperm : contracts'.Perm contracts) : WellFormed contracts' where
  distinct := (hperm.map _).nodup_iff.2 h.distinct
  present compiled hmem dependency hdep :=
    (hperm.map _).mem_iff.2 (h.present compiled (hperm.mem_iff.1 hmem) dependency hdep)
  acyclic id hcycle := by
    have hsame (a b : String) (hab : DependsOn contracts' a b) : DependsOn contracts a b := by
      obtain ⟨compiled, hmem, hid, hdep⟩ := hab
      exact ⟨compiled, hperm.mem_iff.1 hmem, hid, hdep⟩
    exact h.acyclic id (Relation.TransGen.mono hsame _ _ hcycle)

section Lookup

variable {contracts : List (CompiledSourceContract Terms)}

theorem getContract_mem {id : String} {compiled : CompiledSourceContract Terms}
    (h : getContract contracts id = some compiled) : compiled ∈ contracts ∧ compiled.id = id :=
  ⟨List.mem_reverse.1 (List.mem_of_find?_eq_some h), by simpa using List.find?_some h⟩

theorem id_mem_contractIds {compiled : CompiledSourceContract Terms} (h : compiled ∈ contracts) :
    compiled.id ∈ contractIds contracts :=
  List.mem_map_of_mem h

theorem getContract_isSome {id : String} (h : id ∈ contractIds contracts) :
    ∃ compiled, getContract contracts id = some compiled := by
  obtain ⟨compiled, hmem, rfl⟩ := List.mem_map.1 h
  refine Option.isSome_iff_exists.1 (List.find?_isSome.2 ⟨compiled, ?_, by simp⟩)
  exact List.mem_reverse.2 hmem

/-- With distinct ids a contract is what its id is looked up to. -/
theorem getContract_id (hdistinct : (contractIds contracts).Nodup)
    {compiled : CompiledSourceContract Terms} (hmem : compiled ∈ contracts) :
    getContract contracts compiled.id = some compiled := by
  obtain ⟨found, hfound⟩ := getContract_isSome (id_mem_contractIds hmem)
  obtain ⟨hmem', hid⟩ := getContract_mem hfound
  have hsame : found = compiled := List.inj_on_of_nodup_map hdistinct hmem' hmem hid
  rw [hfound, hsame]

end Lookup

/-- The dependencies of the contract of an id. -/
def dependencies (contracts : List (CompiledSourceContract Terms)) (id : String) : List String :=
  ((getContract contracts id).map (·.contract.dependsOn)).getD []

section Validation

variable {contracts : List (CompiledSourceContract Terms)}

theorem dependencies_id (hdistinct : (contractIds contracts).Nodup)
    {compiled : CompiledSourceContract Terms} (hmem : compiled ∈ contracts) :
    dependencies contracts compiled.id = compiled.contract.dependsOn := by
  rw [dependencies, getContract_id hdistinct hmem]
  rfl

/-- An edge of the graph is a dependency of the one contract of an id. -/
theorem edge_dependencies (hdistinct : (contractIds contracts).Nodup) :
    Edge (dependencies contracts) = DependsOn contracts := by
  funext id dependency
  apply propext
  constructor
  · intro hedge
    rcases hfound : getContract contracts id with - | compiled
    · simp [Edge, dependencies, hfound] at hedge
    · obtain ⟨hmem, hid⟩ := getContract_mem hfound
      rw [Edge, dependencies, hfound] at hedge
      exact ⟨compiled, hmem, hid, hedge⟩
  · rintro ⟨compiled, hmem, rfl, hdep⟩
    rw [Edge, dependencies_id hdistinct hmem]
    exact hdep

theorem dependencies_closed
    (hpresent : ∀ compiled ∈ contracts, ∀ dependency ∈ compiled.contract.dependsOn,
      dependency ∈ contractIds contracts) :
    ∀ id ∈ contractIds contracts, dependencies contracts id ⊆ contractIds contracts := by
  intro id hid dependency hdep
  obtain ⟨compiled, hfound⟩ := getContract_isSome hid
  rw [dependencies, hfound] at hdep
  exact hpresent compiled (getContract_mem hfound).1 dependency hdep

/-- The first pass goes through for distinct ids, and indexes the list as it is. -/
theorem indexContracts_eq_ok {byId found : List (CompiledSourceContract Terms)} :
    indexContracts contracts byId = .ok found ↔
      found = byId ++ contracts ∧ (contractIds contracts).Nodup ∧
        ∀ id ∈ contractIds contracts, id ∉ contractIds byId := by
  induction contracts generalizing byId with
  | nil =>
    rw [indexContracts, Except.ok.injEq]
    simp [contractIds, eq_comm]
  | cons contract rest ih =>
    rw [indexContracts]
    split
    · rename_i existing hexisting
      refine iff_of_false nofun fun h ↦ h.2.2 contract.id (List.mem_cons_self ..) ?_
      have hid : existing.id = contract.id := by simpa using List.find?_some hexisting
      exact hid ▸ List.mem_map_of_mem (List.mem_of_find?_eq_some hexisting)
    · rename_i hnone
      have hnew : contract.id ∉ contractIds byId := by
        intro hmem
        obtain ⟨existing, hexisting, hid⟩ := List.mem_map.1 hmem
        simpa [hid] using List.find?_eq_none.1 hnone existing hexisting
      rw [ih, List.append_assoc, List.singleton_append]
      simp only [contractIds, List.map_cons, List.map_append, List.map_nil, List.nodup_cons,
        List.mem_append, List.mem_singleton, List.forall_mem_cons, not_or] at hnew ⊢
      constructor
      · rintro ⟨rfl, hnodup, hapart⟩
        exact ⟨rfl, ⟨fun hmem ↦ (hapart _ hmem).2 rfl, hnodup⟩, hnew, fun id hid ↦ (hapart id hid).1⟩
      · rintro ⟨rfl, ⟨hnot, hnodup⟩, -, hapart⟩
        exact ⟨rfl, hnodup, fun id hid ↦ ⟨hapart id hid, fun heq ↦ hnot (heq ▸ hid)⟩⟩

/-- The second pass goes through for dependencies that are present. -/
theorem requireDependencies_eq_ok {byId : List (CompiledSourceContract Terms)} :
    requireDependencies byId contracts = .ok () ↔
      ∀ compiled ∈ contracts, ∀ dependency ∈ compiled.contract.dependsOn,
        dependency ∈ contractIds byId := by
  simp only [requireDependencies, forM_eq_ok, throwUnless_eq_ok]

/-- The third pass is the search for a cycle. -/
theorem validateVisit_eq
    (hclosed : ∀ id ∈ contractIds contracts, dependencies contracts id ⊆ contractIds contracts)
    {fuel : ℕ} {id : String} (hid : id ∈ contractIds contracts) (s : Search String) :
    validateVisit contracts fuel id s =
      (findCycle (dependencies contracts) fuel id s).map (Except.mapError cycleError) := by
  induction fuel generalizing id s with
  | zero => rfl
  | succ fuel ih =>
    obtain ⟨compiled, hfound⟩ := getContract_isSome hid
    have hnext : dependencies contracts id = compiled.contract.dependsOn := by
      rw [dependencies, hfound]
      rfl
    have hall (t : Search String) :
        visitAll (validateVisit contracts fuel) compiled.contract.dependsOn t =
          (visitAll (findCycle (dependencies contracts) fuel) (dependencies contracts id) t).map
            (Except.mapError cycleError) := by
      rw [← visitAll_mapError, ← hnext]
      exact visitAll_congr (fun dependency hdep t' ↦ ih (hclosed id hid hdep) t') t
    rw [validateVisit, findCycle]
    split
    · rfl
    · split
      · rfl
      · rw [hfound]
        simp only [hall]
        rcases visitAll (findCycle (dependencies contracts) fuel) (dependencies contracts id)
          { s with visiting := id :: s.visiting } with - | c | s'
        · rfl
        · rfl
        · rfl

/-- The three passes: the graph is well formed, or there is an error. -/
theorem validateGraph_settles (contracts : List (CompiledSourceContract Terms)) :
    ∃ result, Settles (validateGraph contracts) result ∧
      (result = .ok () ↔ WellFormed contracts) := by
  rcases hindex : indexContracts contracts [] with error | byId
  · refine ⟨.error error, ⟨0, fun fuel _ ↦ by rw [validateGraph, hindex]⟩, ?_⟩
    refine iff_of_false nofun fun hwell ↦ ?_
    have hok : indexContracts contracts [] = .ok contracts :=
      indexContracts_eq_ok.2 ⟨rfl, hwell.distinct, fun _ _ ↦ List.not_mem_nil⟩
    exact nomatch hindex.symm.trans hok
  · obtain ⟨hbyId, hdistinct, -⟩ := indexContracts_eq_ok.1 hindex
    rw [hbyId, List.nil_append] at hindex
    rcases hrequire : requireDependencies contracts contracts with error | ⟨⟩
    · refine ⟨.error error, ⟨0, fun fuel _ ↦ ?_⟩, ?_⟩
      · simp only [validateGraph, hindex, hrequire]
      · refine iff_of_false nofun fun hwell ↦ ?_
        exact nomatch hrequire.symm.trans (requireDependencies_eq_ok.2 hwell.present)
    · have hpresent := requireDependencies_eq_ok.1 hrequire
      have hclosed := dependencies_closed hpresent
      have hrun (fuel : ℕ) : validateGraph contracts fuel =
          ((visitAll (findCycle (dependencies contracts) fuel) (contractIds contracts) {}).map
            (Except.mapError cycleError)).map (Except.map fun _ ↦ ()) := by
        simp only [validateGraph, hindex, hrequire]
        rw [← visitAll_mapError]
        rw [visitAll_congr fun id hid t ↦ validateVisit_eq hclosed hid t]
      have hmono {fuel more : ℕ} (hle : fuel ≤ more) {result : Except String (Search String)}
          (h : visitAll (findCycle (dependencies contracts) fuel) (contractIds contracts) {} =
            some result) :
          visitAll (findCycle (dependencies contracts) more) (contractIds contracts) {} =
            some result := visitAll_mono (fun _ _ _ hvisit ↦ findCycle_mono hle hvisit) h
      have hfuel := Nat.lt_succ_self (contractIds contracts).length
      rcases searchAll hclosed hfuel with ⟨id, -, herror, hcycle⟩ | ⟨s, hok, hs⟩
      · refine ⟨.error (cycleError id), ⟨(contractIds contracts).length + 1, fun more hle ↦ ?_⟩, ?_⟩
        · rw [hrun, hmono hle herror]
          rfl
        · rw [edge_dependencies hdistinct] at hcycle
          exact iff_of_false nofun fun hwell ↦ hwell.acyclic id hcycle
      · refine ⟨.ok (), ⟨(contractIds contracts).length + 1, fun more hle ↦ ?_⟩, iff_of_true rfl ⟨hdistinct, hpresent, ?_⟩⟩
        · rw [hrun, hmono hle hok]
          rfl
        · intro id hcycle
          have hid : id ∈ contractIds contracts := by
            obtain ⟨dependency, ⟨compiled, hmem, rfl, -⟩, -⟩ :=
              Relation.TransGen.head'_iff.1 hcycle
            exact List.mem_map_of_mem hmem
          rw [← edge_dependencies hdistinct] at hcycle
          exact hs.1.acyclic id (hs.2.1 hid) hcycle

end Validation

end CodeConductor
